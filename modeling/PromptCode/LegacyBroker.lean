import Mathlib.Logic.Function.Basic
import Mathlib.Data.Int.Notation
import Mathlib.Data.Nat.Notation

/-!
# Relayed calls of a legacy job

`run_legacy_broker` of `services/sandbox/legacy_broker_client.py` polls a `LegacyJob` of
`execution_broker.py`, makes the paid call that a thread of the job waits for, and posts
the reply.  The network keeps every message that was ever sent, and hands it over any
number of times or never.
-/

namespace PromptCode

structure RelayError where
  statusCode : ℤ
  detail : String
  deriving DecidableEq

/-! ## The job -/

/-- `LegacyReply`.  The identifiers of `uuid4` are numbers that never repeat. -/
structure LegacyReply (ρ : Type) where
  id : ℕ
  result : Option ρ
  error : Option RelayError
  deriving DecidableEq

/-- Where a thread is in `forward`. -/
inductive ForwardPhase (ρ : Type) where
  | idle
  /-- In `event.wait`. -/
  | waiting (id : ℕ)
  /-- The wait has timed out, the lock is not taken yet. -/
  | expired (id : ℕ)
  | woken (id : ℕ)
  /-- The second block under the lock is done. -/
  | taken (id : ℕ) (reply : Option (LegacyReply ρ))
  /-- The call has ended; no identifier when it was refused at once. -/
  | done (id : Option ℕ) (outcome : Except RelayError ρ)

structure LegacyJob (π ρ : Type) where
  registered : Bool
  event : Bool
  call : Option (ℕ × π)
  reply : Option (LegacyReply ρ)
  lastReplyId : Option ℕ
  result : Option ρ
  cancelled : Bool
  expires : ℤ
  /-- The next identifier of `uuid4`. -/
  nextId : ℕ
  forwarders : ℕ → ForwardPhase ρ
  /-- The replies that were answered with `{'ok': True}`. -/
  acked : List (LegacyReply ρ)

/-- The answer of `poll_legacy`. -/
inductive PollResponse (π ρ : Type) where
  | complete (result : ρ)
  | running (call : Option (ℕ × π))
  deriving DecidableEq

def executionExpired : RelayError := ⟨503, "Execution expired"⟩

def callInProgress : RelayError := ⟨429, "Relay call already in progress"⟩

def relayTimedOut : RelayError := ⟨504, "Application relay timed out"⟩

def executionCancelled : RelayError := ⟨503, "Execution cancelled"⟩

/-- What `forward` makes of the reply. -/
def forwardReply {ρ : Type} (reply : LegacyReply ρ) : Except RelayError ρ :=
  match reply.error with
  | some error =>
      .error ⟨if error.statusCode = 429 then 429 else 502,
        "Application relay rejected request"⟩
  | none =>
      match reply.result with
      | none => .error ⟨502, "Invalid application relay response"⟩
      | some result => .ok result

namespace LegacyJob

variable {π ρ : Type} (job : LegacyJob π ρ)

def start (expires : ℤ) : LegacyJob π ρ where
  registered := true
  event := false
  call := none
  reply := none
  lastReplyId := none
  result := none
  cancelled := false
  expires := expires
  nextId := 0
  forwarders := fun _ => .idle
  acked := []

def callId : Option ℕ := job.call.map Prod.fst

def setPhase (t : ℕ) (p : ForwardPhase ρ) : LegacyJob π ρ :=
  { job with forwarders := Function.update job.forwarders t p }

/-- The first block of `forward` under the lock. -/
def enter (t : ℕ) (now : ℤ) (payload : π) : LegacyJob π ρ :=
  if job.cancelled || job.expires ≤ now then
    job.setPhase t (.done none (.error executionExpired))
  else if job.call.isSome then
    job.setPhase t (.done none (.error callInProgress))
  else
    { job.setPhase t (.waiting job.nextId) with
      event := false
      reply := none
      call := some (job.nextId, payload)
      nextId := job.nextId + 1 }

/-- The block under the lock after a timeout. -/
def timeOut (t id : ℕ) : LegacyJob π ρ :=
  { job.setPhase t (.done (some id) (.error relayTimedOut)) with
    cancelled := true
    call := none }

/-- The block under the lock after the event. -/
def take (t id : ℕ) : LegacyJob π ρ :=
  { job.setPhase t (.taken id job.reply) with call := none }

/-- The rest of `forward`, which reads `cancelled` without the lock. -/
def finish (t id : ℕ) (reply : Option (LegacyReply ρ)) : LegacyJob π ρ :=
  job.setPhase t (.done (some id)
    (match reply with
      | none => .error executionCancelled
      | some reply =>
          if job.cancelled then .error executionCancelled else forwardReply reply))

def cancel : LegacyJob π ρ := { job with cancelled := true, event := true }

/-- `reap_legacy_jobs`. -/
def reap (now : ℤ) : LegacyJob π ρ :=
  if job.registered && job.expires ≤ now then { job.cancel with registered := false }
  else job

/-- `poll_legacy`; `none` is 404. -/
def poll : LegacyJob π ρ × Option (PollResponse π ρ) :=
  if job.registered then
    match job.result with
    | some result => ({ job with registered := false }, some (.complete result))
    | none => (job, some (.running job.call))
  else (job, none)

/-- The reply is the first one for the pending call. -/
def accepts (reply : LegacyReply ρ) : Bool :=
  job.registered && job.lastReplyId ≠ some reply.id && job.callId = some reply.id &&
    !job.cancelled

/-- `reply_legacy`. -/
def deliver (reply : LegacyReply ρ) : LegacyJob π ρ :=
  if job.registered && job.lastReplyId = some reply.id then
    { job with acked := reply :: job.acked }
  else if job.accepts reply then
    { job with
      reply := some reply
      lastReplyId := some reply.id
      event := true
      acked := reply :: job.acked }
  else job

end LegacyJob

/-! ## The client -/

/-- Where `run_legacy_broker` is in its loop. -/
inductive ClientPhase (π : Type) where
  | polling
  /-- In `relay.handle_request`. -/
  | relaying (id : ℕ) (payload : π)
  | replying (id : ℕ)
  | stopped
  deriving DecidableEq

structure LegacyClient (π ρ : Type) where
  phase : ClientPhase π
  replies : List (LegacyReply ρ)
  maxCalls : ℤ
  /-- The calls for which `relay.handle_request` was called. -/
  relayed : List ℕ

/-- How `relay.handle_request` and the use of its result end. -/
inductive RelayOutcome (ρ : Type) where
  | paid (result : ρ)
  | refused (error : RelayError)
  /-- One of `httpx.HTTPError`, `ValueError`, `TypeError` and `KeyError`. -/
  | unavailable
  /-- Any other exception, which ends the client. -/
  | crashed
  deriving DecidableEq

namespace LegacyClient

variable {π ρ : Type} (client : LegacyClient π ρ)

def start (maxCalls : ℤ) : LegacyClient π ρ := ⟨.polling, [], maxCalls, []⟩

/-- A poll response arrives. -/
def receive (response : PollResponse π ρ) : LegacyClient π ρ :=
  match response with
  | .complete _ => { client with phase := .stopped }
  | .running none => client
  | .running (some (id, payload)) =>
      if id ∈ client.replies.map LegacyReply.id then { client with phase := .replying id }
      else if client.maxCalls ≤ client.replies.length then { client with phase := .stopped }
      else
        { client with
          phase := .relaying id payload
          relayed := id :: client.relayed }

/-- The reply to the call; `none` when the client ends. -/
def replyOf (id : ℕ) : RelayOutcome ρ → Option (LegacyReply ρ)
  | .paid result => some ⟨id, some result, none⟩
  | .refused error => some ⟨id, none, some error⟩
  | .unavailable => some ⟨id, none, some ⟨502, "Application LLM relay unavailable."⟩⟩
  | .crashed => none

def relay (id : ℕ) (outcome : RelayOutcome ρ) : LegacyClient π ρ :=
  match replyOf id outcome with
  | some reply =>
      { client with phase := .replying id, replies := reply :: client.replies }
  | none => { client with phase := .stopped }

end LegacyClient

/-! ## Both and the network -/

structure LegacyRelay (π ρ : Type) where
  job : LegacyJob π ρ
  client : LegacyClient π ρ
  /-- All poll responses that were sent. -/
  polls : List (PollResponse π ρ)
  /-- All replies that were posted. -/
  posted : List (LegacyReply ρ)

inductive LegacyAction (π ρ : Type) where
  | enter (t : ℕ) (now : ℤ) (payload : π)
  | expire (t : ℕ)
  | wake (t : ℕ)
  | timeOut (t : ℕ)
  | take (t : ℕ)
  | finish (t : ℕ)
  /-- The execution of the job ends. -/
  | complete (result : ρ)
  | poll
  | deliver (reply : LegacyReply ρ)
  | cancel
  | reap (now : ℤ)
  | receive (response : PollResponse π ρ)
  | relay (outcome : RelayOutcome ρ)
  | post
  /-- The deadline, an error response or an exception ends the client. -/
  | stop

namespace LegacyRelay

variable {π ρ : Type} (s : LegacyRelay π ρ)

def start (expires maxCalls : ℤ) : LegacyRelay π ρ :=
  ⟨.start expires, .start maxCalls, [], []⟩

def withJob (job : LegacyJob π ρ) : LegacyRelay π ρ := { s with job := job }

/-- The thread runs on from its phase. -/
def expire (t : ℕ) : LegacyRelay π ρ :=
  match s.job.forwarders t with
  | .waiting id => if s.job.event then s else s.withJob (s.job.setPhase t (.expired id))
  | _ => s

def wake (t : ℕ) : LegacyRelay π ρ :=
  match s.job.forwarders t with
  | .waiting id => if s.job.event then s.withJob (s.job.setPhase t (.woken id)) else s
  | _ => s

def timeOut (t : ℕ) : LegacyRelay π ρ :=
  match s.job.forwarders t with
  | .expired id => s.withJob (s.job.timeOut t id)
  | _ => s

def take (t : ℕ) : LegacyRelay π ρ :=
  match s.job.forwarders t with
  | .woken id => s.withJob (s.job.take t id)
  | _ => s

def finish (t : ℕ) : LegacyRelay π ρ :=
  match s.job.forwarders t with
  | .taken id reply => s.withJob (s.job.finish t id reply)
  | _ => s

def enter (t : ℕ) (now : ℤ) (payload : π) : LegacyRelay π ρ :=
  match s.job.forwarders t with
  | .idle => s.withJob (s.job.enter t now payload)
  | _ => s

def poll : LegacyRelay π ρ :=
  { s.withJob s.job.poll.1 with polls := s.job.poll.2.toList ++ s.polls }

def relay (outcome : RelayOutcome ρ) : LegacyRelay π ρ :=
  match s.client.phase with
  | .relaying id _ => { s with client := s.client.relay id outcome }
  | _ => s

/-- The cached reply is posted, and the client polls again. -/
def post : LegacyRelay π ρ :=
  match s.client.phase with
  | .replying id =>
      { s with
        client := { s.client with phase := .polling }
        posted := (s.client.replies.find? (·.id = id)).toList ++ s.posted }
  | _ => s

end LegacyRelay

def legacyAct {π ρ : Type} [DecidableEq π] [DecidableEq ρ] (s : LegacyRelay π ρ) :
    LegacyAction π ρ → LegacyRelay π ρ
  | .enter t now payload => s.enter t now payload
  | .expire t => s.expire t
  | .wake t => s.wake t
  | .timeOut t => s.timeOut t
  | .take t => s.take t
  | .finish t => s.finish t
  | .complete result => s.withJob { s.job with result := some result }
  | .poll => s.poll
  | .deliver reply => if reply ∈ s.posted then s.withJob (s.job.deliver reply) else s
  | .cancel => if s.job.registered then s.withJob s.job.cancel else s
  | .reap now => s.withJob (s.job.reap now)
  | .receive response =>
      if response ∈ s.polls ∧ s.client.phase = .polling then
        { s with client := s.client.receive response }
      else s
  | .relay outcome => s.relay outcome
  | .post => s.post
  | .stop => { s with client := { s.client with phase := .stopped } }

end PromptCode
