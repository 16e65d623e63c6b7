import PromptCode.LegacyJobCalls
import PromptCode.Transition
import Mathlib.Data.List.Nodup

/-!
# Runs of a legacy job and its client

The client's cache makes the paid call of an identifier unique.  With the invariant of
the job it follows which thread gets which reply in every run.
-/

namespace PromptCode

open Transition

section

variable {π ρ : Type}

/-! ## The client relays a call once -/

structure ClientOk (s : LegacyRelay π ρ) : Prop where
  replies : (s.client.replies.map LegacyReply.id).Nodup
  posted : ∀ r ∈ s.posted, r ∈ s.client.replies
  relayed : s.client.relayed.Nodup
  known : s.client.phase ≠ .stopped → ∀ id ∈ s.client.relayed,
    id ∈ s.client.replies.map LegacyReply.id ∨ ∃ payload, s.client.phase = .relaying id payload
  fresh : ∀ id payload, s.client.phase = .relaying id payload →
    id ∉ s.client.replies.map LegacyReply.id

section

variable {s s' : LegacyRelay π ρ}

theorem clientOk_start (expires maxCalls : ℤ) :
    ClientOk (.start expires maxCalls : LegacyRelay π ρ) where
  replies := List.nodup_nil
  posted := fun _ h => nomatch h
  relayed := List.nodup_nil
  known := fun _ _ h => nomatch h
  fresh := fun _ _ h => nomatch h

/-- A step of the job does not touch the client. -/
theorem ClientOk.of_same (h : ClientOk s) (hclient : s'.client = s.client)
    (hposted : s'.posted = s.posted) : ClientOk s' := by
  obtain ⟨hreplies, hsent, hrelayed, hknown, hfresh⟩ := h
  refine ⟨?_, ?_, ?_, ?_, ?_⟩ <;> simpa only [hclient, hposted]

/-- The posted replies to one call are one reply. -/
theorem ClientOk.eq_of_id (h : ClientOk s) {r r' : LegacyReply ρ} (hr : r ∈ s.posted)
    (hr' : r' ∈ s.posted) (hid : r.id = r'.id) : r = r' :=
  List.inj_on_of_nodup_map h.replies (h.posted r hr) (h.posted r' hr') hid

theorem ClientOk.receive (h : ClientOk s) (hphase : s.client.phase = .polling)
    (response : PollResponse π ρ) :
    ClientOk { s with client := s.client.receive response } := by
  have hknown : ∀ id ∈ s.client.relayed, id ∈ s.client.replies.map LegacyReply.id := by
    intro id hid
    rcases h.known (by rw [hphase]; exact nofun) id hid with hin | ⟨_, hbusy⟩
    · exact hin
    · exact nomatch hphase.symm.trans hbusy
  rcases response with result | _ | ⟨id, payload⟩ <;> rw [LegacyClient.receive]
  case complete => exact ⟨h.replies, h.posted, h.relayed, fun hne => absurd rfl hne, nofun⟩
  case running.none => exact h
  case running.some =>
    split_ifs with hcached hmax
    · exact ⟨h.replies, h.posted, h.relayed, fun _ id hid => .inl (hknown id hid), nofun⟩
    · exact ⟨h.replies, h.posted, h.relayed, fun hne => absurd rfl hne, nofun⟩
    · refine ⟨h.replies, h.posted, ?_, ?_, ?_⟩
      · exact List.nodup_cons.mpr ⟨fun hid => hcached (hknown id hid), h.relayed⟩
      · intro _ i hi
        rcases List.mem_cons.mp hi with rfl | hi
        · exact .inr ⟨payload, rfl⟩
        · exact .inl (hknown i hi)
      · intro i _ hi
        obtain ⟨rfl, -⟩ := ClientPhase.relaying.inj hi
        exact hcached

theorem LegacyClient.replyOf_id {id : ℕ} {outcome : RelayOutcome ρ} {r : LegacyReply ρ}
    (h : LegacyClient.replyOf id outcome = some r) : r.id = id := by
  rcases outcome with result | error | _ | _
  case crashed => exact nomatch h
  all_goals
    obtain rfl := Option.some.inj h
    rfl

theorem ClientOk.relay (h : ClientOk s) (outcome : RelayOutcome ρ) :
    ClientOk (s.relay outcome) := by
  rw [LegacyRelay.relay]
  split
  · rename_i id payload hphase
    rw [LegacyClient.relay]
    split
    · rename_i reply hreply
      have hid := LegacyClient.replyOf_id hreply
      refine ⟨?_, ?_, h.relayed, ?_, nofun⟩
      · rw [List.map_cons, List.nodup_cons, hid]
        exact ⟨h.fresh id payload hphase, h.replies⟩
      · exact fun r hr => List.mem_cons_of_mem _ (h.posted r hr)
      · intro _ i hi
        rcases h.known (by rw [hphase]; exact nofun) i hi with hin | ⟨_, hbusy⟩
        · exact .inl (List.mem_cons_of_mem _ hin)
        · obtain ⟨rfl, -⟩ := ClientPhase.relaying.inj (hphase.symm.trans hbusy)
          exact .inl (List.mem_cons.mpr (.inl hid.symm))
    · exact ⟨h.replies, h.posted, h.relayed, fun hne => absurd rfl hne, nofun⟩
  · exact h

theorem ClientOk.post (h : ClientOk s) : ClientOk s.post := by
  rw [LegacyRelay.post]
  split
  · rename_i id hphase
    refine ⟨h.replies, ?_, h.relayed, ?_, nofun⟩
    · intro r hr
      rcases List.mem_append.mp hr with hr | hr
      · exact List.mem_of_find?_eq_some (Option.mem_toList.mp hr)
      · exact h.posted r hr
    · intro _ i hi
      rcases h.known (by rw [hphase]; exact nofun) i hi with hin | ⟨_, hbusy⟩
      · exact .inl hin
      · exact nomatch hphase.symm.trans hbusy
  · exact h

end

/-! ## Whole runs -/

structure LegacyOk (s : LegacyRelay π ρ) : Prop where
  job : JobOk s.job
  client : ClientOk s
  acked : ∀ r ∈ s.job.acked, r ∈ s.posted

section

variable {s : LegacyRelay π ρ}

/-- A step of the job alone. -/
theorem LegacyOk.withJob (h : LegacyOk s) {job : LegacyJob π ρ} (hjob : JobOk job)
    (hacked : ∀ r ∈ job.acked, r ∈ s.posted) : LegacyOk (s.withJob job) :=
  ⟨hjob, h.client.of_same rfl rfl, hacked⟩

theorem LegacyJob.acked_deliver {job : LegacyJob π ρ} {reply r : LegacyReply ρ}
    (h : r ∈ (job.deliver reply).acked) : r = reply ∨ r ∈ job.acked := by
  rw [LegacyJob.deliver] at h
  split_ifs at h
  · exact List.mem_cons.mp h
  · exact List.mem_cons.mp h
  · exact .inr h

theorem LegacyJob.acked_poll (job : LegacyJob π ρ) : job.poll.1.acked = job.acked := by
  rw [LegacyJob.poll]
  split_ifs
  · split <;> rfl
  · rfl

theorem LegacyJob.acked_enter {job : LegacyJob π ρ} {t : ℕ} {now : ℤ} {payload : π} :
    (job.enter t now payload).acked = job.acked := by
  rw [LegacyJob.enter]
  split_ifs <;> rfl

theorem LegacyJob.acked_reap {job : LegacyJob π ρ} {now : ℤ} :
    (job.reap now).acked = job.acked := by
  rw [LegacyJob.reap]
  split_ifs <;> rfl

variable [DecidableEq π] [DecidableEq ρ]

theorem LegacyOk.act (h : LegacyOk s) (a : LegacyAction π ρ) : LegacyOk (legacyAct s a) := by
  have hjob := h.job
  rcases a with ⟨t, now, payload⟩ | t | t | t | t | t | result | _ | reply | _ | now |
    response | outcome | _ | _ <;> rw [legacyAct]
  case enter =>
    rw [LegacyRelay.enter]
    split
    · rename_i hphase
      refine h.withJob (hjob.enter now payload hphase) ?_
      rw [LegacyJob.acked_enter]
      exact h.acked
    · exact h
  case expire =>
    rw [LegacyRelay.expire]
    split
    · rename_i id hphase
      split_ifs
      · exact h
      · have hok := hjob.phases t
        rw [hphase] at hok
        exact h.withJob (hjob.setPhase hok fun _ => by rw [hphase]; rfl) h.acked
    · exact h
  case wake =>
    rw [LegacyRelay.wake]
    split
    · rename_i id hphase
      split_ifs
      · have hok := hjob.phases t
        rw [hphase] at hok
        exact h.withJob (hjob.setPhase hok fun _ => by rw [hphase]; rfl) h.acked
      · exact h
    · exact h
  case timeOut =>
    rw [LegacyRelay.timeOut]
    split
    · rename_i id hphase
      exact h.withJob (hjob.timeOut hphase) h.acked
    · exact h
  case take =>
    rw [LegacyRelay.take]
    split
    · rename_i id hphase
      exact h.withJob (hjob.take hphase) h.acked
    · exact h
  case finish =>
    rw [LegacyRelay.finish]
    split
    · rename_i id reply hphase
      exact h.withJob (hjob.finish hphase) h.acked
    · exact h
  case complete =>
    exact h.withJob (hjob.of_same rfl rfl rfl (fun he => he) rfl rfl fun _ => .rfl) h.acked
  case poll =>
    refine ⟨hjob.poll, h.client.of_same rfl rfl, ?_⟩
    intro r hr
    exact h.acked r (LegacyJob.acked_poll s.job ▸ hr)
  case deliver =>
    split_ifs with hposted
    · refine h.withJob (hjob.deliver ?_) ?_
      · exact fun r hr hid => h.client.eq_of_id (h.acked r hr) hposted hid
      · intro r hr
        rcases LegacyJob.acked_deliver hr with rfl | hr
        · exact hposted
        · exact h.acked r hr
    · exact h
  case cancel =>
    split_ifs
    · exact h.withJob hjob.cancel h.acked
    · exact h
  case reap =>
    refine h.withJob (hjob.reap now) ?_
    rw [LegacyJob.acked_reap]
    exact h.acked
  case receive =>
    split_ifs with hready
    · exact ⟨hjob, h.client.receive hready.2 response, h.acked⟩
    · exact h
  case relay =>
    have hclient := h.client.relay outcome
    rw [LegacyRelay.relay] at hclient ⊢
    split at hclient
    · exact ⟨hjob, hclient, h.acked⟩
    · exact h
  case post =>
    have hclient := h.client.post
    rw [LegacyRelay.post] at hclient ⊢
    split at hclient
    · exact ⟨hjob, hclient, fun r hr => List.mem_append.mpr (.inr (h.acked r hr))⟩
    · exact h
  case stop =>
    obtain ⟨hreplies, hposted, hrelayed, -, -⟩ := h.client
    exact ⟨hjob, ⟨hreplies, hposted, hrelayed, fun hne => absurd rfl hne, nofun⟩, h.acked⟩

end

/-! ## Acknowledged replies -/

/-- No reply is accepted between the timeout of its thread's wait and the block that
clears the call. -/
def RepliesInTime (s : LegacyRelay π ρ) (a : LegacyAction π ρ) : Prop :=
  ∀ r ∈ s.posted, a = .deliver r → s.job.accepts r = true →
    ∀ t id, s.job.forwarders t = .expired id → id ≠ r.id

/-- An acknowledged reply is the one that its thread returns, or will return. -/
def AckPhaseOk (job : LegacyJob π ρ) : ForwardPhase ρ → Prop
  | .expired id => ∀ r ∈ job.acked, r.id ≠ id
  | .done (some id) outcome => ∀ r ∈ job.acked, r.id = id →
      outcome = forwardReply r ∨
        outcome = .error executionCancelled ∧ job.cancelled = true
  | _ => True

def AckOk (job : LegacyJob π ρ) : Prop := ∀ t, AckPhaseOk job (job.forwarders t)

section

variable {job job' : LegacyJob π ρ} {p : ForwardPhase ρ} {t id : ℕ}

theorem AckPhaseOk.of_acked (h : AckPhaseOk job p)
    (hcancelled : job.cancelled = true → job'.cancelled = true)
    (hacked : ∀ r ∈ job'.acked, r ∈ job.acked ∨
      p ≠ .expired r.id ∧ ∀ outcome, p ≠ .done (some r.id) outcome) :
    AckPhaseOk job' p := by
  rcases p with _ | id | id | id | ⟨id, reply⟩ | ⟨_ | id, outcome⟩
  case expired =>
    intro r hr hid
    rcases hacked r hr with hr | ⟨hne, -⟩
    · exact h r hr hid
    · exact hne (hid ▸ rfl)
  case done.some =>
    intro r hr hid
    rcases hacked r hr with hr | ⟨-, hne⟩
    · exact (h r hr hid).imp_right fun hc => ⟨hc.1, hcancelled hc.2⟩
    · exact absurd (hid ▸ rfl) (hne outcome)
  all_goals trivial

/-- A step of one thread. -/
theorem AckOk.update (h : AckOk job) (hp : AckPhaseOk job' p)
    (hforwarders : job'.forwarders = Function.update job.forwarders t p)
    (hcancelled : job.cancelled = true → job'.cancelled = true)
    (hacked : job'.acked = job.acked) : AckOk job' := by
  intro u
  rw [hforwarders]
  by_cases hut : u = t
  · rw [hut, Function.update_self]
    exact hp
  · rw [Function.update_of_ne hut]
    exact (h u).of_acked hcancelled fun r hr => .inl (hacked ▸ hr)

theorem AckOk.of_same (h : AckOk job) (hforwarders : job'.forwarders = job.forwarders)
    (hcancelled : job.cancelled = true → job'.cancelled = true)
    (hacked : job'.acked = job.acked) : AckOk job' := by
  intro u
  rw [hforwarders]
  exact (h u).of_acked hcancelled fun r hr => .inl (hacked ▸ hr)

theorem AckOk.enter (h : AckOk job) (now : ℤ) (payload : π) :
    AckOk (job.enter t now payload) := by
  rw [LegacyJob.enter]
  split_ifs
  · exact h.update (p := .done none _) trivial rfl (fun hc => hc) rfl
  · exact h.update (p := .done none _) trivial rfl (fun hc => hc) rfl
  · exact h.update (p := .waiting job.nextId) trivial rfl (fun hc => hc) rfl

/-- The event is set once a reply to the call is acknowledged. -/
theorem AckOk.expire (h : AckOk job) (hjob : JobOk job)
    (hphase : job.forwarders t = .waiting id) (hevent : job.event = false) :
    AckOk (job.setPhase t (.expired id)) := by
  have hok := hjob.phases t
  rw [hphase] at hok
  refine h.update (p := .expired id) ?_ rfl (fun hc => hc) rfl
  intro r hr hid
  exact absurd (hok.2.2 r hr hid).2 (by rw [hevent]; exact Bool.false_ne_true)

theorem AckOk.timeOut (h : AckOk job) (hphase : job.forwarders t = .expired id) :
    AckOk (job.timeOut t id) := by
  have hnone := h t
  rw [hphase] at hnone
  refine h.update (p := .done (some id) _) ?_ rfl (fun _ => rfl) rfl
  intro r hr hid
  exact absurd hid (hnone r hr)

theorem AckOk.finish (h : AckOk job) (hjob : JobOk job) {reply : Option (LegacyReply ρ)}
    (hphase : job.forwarders t = .taken id reply) : AckOk (job.finish t id reply) := by
  have hok := hjob.phases t
  rw [hphase] at hok
  obtain ⟨-, -, -, hwritten⟩ := hok
  refine h.update (p := .done (some id) _) ?_ rfl (fun hc => hc) rfl
  intro r hr hid
  rw [hwritten r hr hid]
  dsimp only
  split_ifs with hcancelled
  · exact .inr ⟨rfl, hcancelled⟩
  · exact .inl rfl

theorem AckOk.deliver (h : AckOk job) (hjob : JobOk job) {reply : LegacyReply ρ}
    (hsame : ∀ r ∈ job.acked, r.id = reply.id → r = reply)
    (htime : job.accepts reply = true →
      ∀ t id, job.forwarders t = .expired id → id ≠ reply.id) :
    AckOk (job.deliver reply) := by
  rw [LegacyJob.deliver]
  split_ifs with hdup haccepts
  · simp only [Bool.and_eq_true, decide_eq_true_eq] at hdup
    obtain ⟨r, hr, hid⟩ := hjob.lastAcked _ hdup.2
    obtain rfl := hsame r hr hid
    refine fun u => (h u).of_acked (fun hc => hc) ?_
    intro r' hr'
    exact .inl ((List.mem_cons.mp hr').elim (fun he => he ▸ hr) (fun hr' => hr'))
  · have hcall : job.callId = some reply.id := by
      simp only [LegacyJob.accepts, Bool.and_eq_true, decide_eq_true_eq] at haccepts
      exact haccepts.1.2
    refine fun u => (h u).of_acked (fun hc => hc) ?_
    intro r hr
    rcases List.mem_cons.mp hr with rfl | hr
    · refine .inr ⟨fun hphase => htime haccepts u r.id hphase rfl, ?_⟩
      intro outcome hphase
      have hok := hjob.phases u
      rw [hphase] at hok
      exact hok.2.1 hcall
    · exact .inl hr
  · exact h

end

section

variable {s : LegacyRelay π ρ}

/-- A call is relayed at most once, and a thread is handed the reply to its own call. -/
structure RelayedOnce (s : LegacyRelay π ρ) : Prop where
  relayed : s.client.relayed.Nodup
  taken : ∀ t id r, s.job.forwarders t = .taken id (some r) → r.id = id
  done : ∀ t id outcome, s.job.forwarders t = .done (some id) outcome →
    (∃ r ∈ s.job.acked, r.id = id ∧ outcome = forwardReply r) ∨
      outcome = .error relayTimedOut ∨ outcome = .error executionCancelled

/-- The thread whose reply was acknowledged returns it, unless the job is cancelled. -/
def RepliesReturned (s : LegacyRelay π ρ) : Prop :=
  ∀ r ∈ s.job.acked, ∀ t outcome, s.job.forwarders t = .done (some r.id) outcome →
    outcome = forwardReply r ∨
      outcome = .error executionCancelled ∧ s.job.cancelled = true

theorem LegacyOk.relayedOnce (h : LegacyOk s) : RelayedOnce s := by
  refine ⟨h.client.relayed, ?_, ?_⟩
  · intro t id r hphase
    have hok := h.job.phases t
    rw [hphase] at hok
    exact (hok.2.2.1 r rfl).1
  · intro t id outcome hphase
    have hok := h.job.phases t
    rw [hphase] at hok
    exact hok.2.2

theorem legacyOk_start (expires maxCalls : ℤ) :
    LegacyOk (.start expires maxCalls : LegacyRelay π ρ) :=
  ⟨jobOk_start expires, clientOk_start expires maxCalls, nofun⟩

variable [DecidableEq π] [DecidableEq ρ]

theorem AckOk.act (h : AckOk s.job) (hs : LegacyOk s) {a : LegacyAction π ρ}
    (ha : RepliesInTime s a) : AckOk (legacyAct s a).job := by
  have hjob := hs.job
  rcases a with ⟨t, now, payload⟩ | t | t | t | t | t | result | _ | reply | _ | now |
    response | outcome | _ | _ <;> rw [legacyAct]
  case enter =>
    rw [LegacyRelay.enter]
    split
    · exact h.enter now payload
    · exact h
  case expire =>
    rw [LegacyRelay.expire]
    split
    · rename_i id hphase
      split_ifs with hevent
      · exact h
      · exact h.expire hjob hphase (Bool.eq_false_iff.mpr hevent)
    · exact h
  case wake =>
    rw [LegacyRelay.wake]
    split
    · rename_i id hphase
      split_ifs
      · exact h.update (p := .woken id) trivial rfl (fun hc => hc) rfl
      · exact h
    · exact h
  case timeOut =>
    rw [LegacyRelay.timeOut]
    split
    · rename_i id hphase
      exact h.timeOut hphase
    · exact h
  case take =>
    rw [LegacyRelay.take]
    split
    · rename_i id hphase
      exact h.update (p := .taken id s.job.reply) trivial rfl (fun hc => hc) rfl
    · exact h
  case finish =>
    rw [LegacyRelay.finish]
    split
    · rename_i id reply hphase
      exact h.finish hjob hphase
    · exact h
  case complete => exact h.of_same rfl (fun hc => hc) rfl
  case poll =>
    change AckOk s.job.poll.1
    rw [LegacyJob.poll]
    split_ifs
    · split
      · exact h.of_same rfl (fun hc => hc) rfl
      · exact h
    · exact h
  case deliver =>
    split_ifs with hposted
    · refine h.deliver hjob ?_ (ha reply hposted rfl)
      exact fun r hr hid => hs.client.eq_of_id (hs.acked r hr) hposted hid
    · exact h
  case cancel =>
    split_ifs
    · exact h.of_same rfl (fun _ => rfl) rfl
    · exact h
  case reap =>
    change AckOk (s.job.reap now)
    rw [LegacyJob.reap]
    split_ifs
    · exact h.of_same rfl (fun _ => rfl) rfl
    · exact h
  case receive => split_ifs <;> exact h
  case relay => rw [LegacyRelay.relay]; split <;> exact h
  case post => rw [LegacyRelay.post]; split <;> exact h
  case stop => exact h

/-- Every run relays each call once and hands each reply to its own call.  When no reply
slips in between a timeout and the block that clears the call, every acknowledged reply
is returned. -/
theorem legacy_broker_relays_once (expires maxCalls : ℤ) (actions : List (LegacyAction π ρ)) :
    RelayedOnce (run legacyAct (.start expires maxCalls) actions) ∧
      (Throughout legacyAct RepliesInTime (.start expires maxCalls) actions →
        RepliesReturned (run legacyAct (.start expires maxCalls) actions)) := by
  refine ⟨?_, ?_⟩
  · apply LegacyOk.relayedOnce
    exact invariant_run_of_step LegacyOk (fun _ a h => h.act a)
      (legacyOk_start expires maxCalls)
  · intro htime
    have hrun := invariant_run (fun s : LegacyRelay π ρ => LegacyOk s ∧ AckOk s.job)
      (fun _ a h ha => ⟨h.1.act a, h.2.act h.1 ha⟩)
      ⟨legacyOk_start expires maxCalls, fun _ => trivial⟩ htime
    intro r hr t outcome hphase
    have hok := hrun.2 t
    rw [hphase] at hok
    exact hok r hr rfl

end

/-- One call that is relayed, posted, acknowledged and returned. -/
theorem legacy_broker_relays_once_one_call :
    RepliesReturned (run legacyAct (.start 10 3 : LegacyRelay ℕ ℕ)
      [.enter 0 0 7, .poll, .receive (.running (some (0, 7))), .relay (.paid 5), .post,
        .deliver ⟨0, some 5, none⟩, .wake 0, .take 0, .finish 0]) := by
  apply (legacy_broker_relays_once 10 3 _).2
  have hother : ∀ (s : LegacyRelay ℕ ℕ) a, (∀ r, a ≠ .deliver r) → RepliesInTime s a :=
    fun _ _ hne r _ ha => absurd ha (hne r)
  refine ⟨hother _ _ nofun, hother _ _ nofun, hother _ _ nofun, hother _ _ nofun,
    hother _ _ nofun, ?_, hother _ _ nofun, hother _ _ nofun, hother _ _ nofun, trivial⟩
  intro r _ _ _ t id hphase
  by_cases ht : t = 0
  · subst ht
    exact nomatch hphase
  · have hidle : Function.update (fun _ => ForwardPhase.idle) 0 (.waiting 0) t =
        (ForwardPhase.expired id : ForwardPhase ℕ) := hphase
    rw [Function.update_of_ne ht] at hidle
    exact nomatch hidle

/-- The wait times out, the reply is acknowledged, and then the thread takes the lock. -/
theorem acknowledged_reply_lost :
    ¬ ∀ (expires maxCalls : ℤ) (actions : List (LegacyAction ℕ ℕ)),
      RepliesReturned (run legacyAct (.start expires maxCalls) actions) := by
  intro h
  have hreturned := h 10 3
    [.enter 0 0 7, .poll, .receive (.running (some (0, 7))), .relay (.paid 5), .post,
      .expire 0, .deliver ⟨0, some 5, none⟩, .timeOut 0]
    ⟨0, some 5, none⟩ (by decide) 0 (.error relayTimedOut) rfl
  rcases hreturned with hreply | ⟨hcancelled, -⟩
  · exact nomatch hreply
  · revert hcancelled
    simp [relayTimedOut, executionCancelled]

end

end PromptCode
