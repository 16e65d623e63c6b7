import PromptCode.LegacyBroker
import Mathlib.Algebra.Order.Ring.Nat

/-!
# The pending call of a legacy job

What each step of a job's threads and of its routes keeps: at most one thread waits,
the pending call is its call, and the stored reply is a reply to it.
-/

namespace PromptCode

section

variable {π ρ : Type}

/-- The call that the thread waits for or has been woken for. -/
def ForwardPhase.waitsFor : ForwardPhase ρ → Option ℕ
  | .waiting id | .expired id | .woken id => some id
  | _ => none

/-- What the phase of a thread says about the replies. -/
def ForwardOk (job : LegacyJob π ρ) : ForwardPhase ρ → Prop
  | .idle => True
  | .waiting id | .expired id | .woken id =>
      job.callId = some id ∧
        (∀ r, job.reply = some r → r.id = id ∧ r ∈ job.acked) ∧
        ∀ r ∈ job.acked, r.id = id → job.reply = some r ∧ job.event = true
  | .taken id reply =>
      id < job.nextId ∧ job.callId ≠ some id ∧
        (∀ r, reply = some r → r.id = id ∧ r ∈ job.acked) ∧
        ∀ r ∈ job.acked, r.id = id → reply = some r
  | .done none _ => True
  | .done (some id) outcome =>
      id < job.nextId ∧ job.callId ≠ some id ∧
        ((∃ r ∈ job.acked, r.id = id ∧ outcome = forwardReply r) ∨
          outcome = .error relayTimedOut ∨
          outcome = .error executionCancelled)

structure JobOk (job : LegacyJob π ρ) : Prop where
  callFresh : ∀ id, job.callId = some id → id < job.nextId
  ackedFresh : ∀ r ∈ job.acked, r.id < job.nextId
  ackedUnique : ∀ r ∈ job.acked, ∀ r' ∈ job.acked, r.id = r'.id → r = r'
  last : ∀ r ∈ job.acked, job.callId = some r.id → job.lastReplyId = some r.id
  lastAcked : ∀ id, job.lastReplyId = some id → ∃ r ∈ job.acked, r.id = id
  single : ∀ t u, (job.forwarders t).waitsFor.isSome → (job.forwarders u).waitsFor.isSome →
    t = u
  phases : ∀ t, ForwardOk job (job.forwarders t)

section

variable {job job' : LegacyJob π ρ} {p : ForwardPhase ρ} {t id : ℕ}

theorem ForwardOk.of_same (h : ForwardOk job p) (hcall : job'.callId = job.callId)
    (hreply : job'.reply = job.reply) (hevent : job.event = true → job'.event = true)
    (hnext : job'.nextId = job.nextId) (hacked : ∀ r, r ∈ job'.acked ↔ r ∈ job.acked) :
    ForwardOk job' p := by
  rcases p with _ | id | id | id | ⟨id, reply⟩ | ⟨_ | id, outcome⟩
  case waiting | expired | woken =>
    obtain ⟨hid, hread, hwritten⟩ := h
    refine ⟨hcall.trans hid, ?_, ?_⟩
    · intro r hr
      rw [hacked]
      exact hread r (hreply ▸ hr)
    · intro r hr hrid
      obtain ⟨hstored, hset⟩ := hwritten r ((hacked r).mp hr) hrid
      exact ⟨hreply.trans hstored, hevent hset⟩
  case taken | done.some => simpa only [ForwardOk, hcall, hnext, hacked] using h
  all_goals trivial

/-- A thread that waits for nothing does not mind other calls. -/
theorem ForwardOk.of_settled (h : ForwardOk job p) (hp : p.waitsFor = none)
    (hnext : job.nextId ≤ job'.nextId)
    (hcall : ∀ id < job.nextId, job.callId ≠ some id → job'.callId ≠ some id)
    (hold : ∀ r ∈ job.acked, r ∈ job'.acked)
    (hnew : ∀ r ∈ job'.acked, r ∈ job.acked ∨ job.callId = some r.id) : ForwardOk job' p := by
  rcases p with _ | id | id | id | ⟨id, reply⟩ | ⟨_ | id, outcome⟩
  case idle => trivial
  case waiting | expired | woken => exact nomatch hp
  case taken =>
    obtain ⟨hlt, hgone, hread, hwritten⟩ := h
    refine ⟨hlt.trans_le hnext, hcall id hlt hgone, ?_, ?_⟩
    · intro r hr
      exact ⟨(hread r hr).1, hold r (hread r hr).2⟩
    · intro r hr hrid
      rcases hnew r hr with hr | hpending
      · exact hwritten r hr hrid
      · exact absurd (hrid ▸ hpending) hgone
  case done.none => trivial
  case done.some =>
    obtain ⟨hlt, hgone, houtcome⟩ := h
    refine ⟨hlt.trans_le hnext, hcall id hlt hgone, ?_⟩
    rcases houtcome with ⟨r, hr, hrid, rfl⟩ | hother
    · exact .inl ⟨r, hold r hr, hrid, rfl⟩
    · exact .inr hother

theorem ForwardOk.waits (h : ForwardOk job p) (hp : p.waitsFor = some id) :
    job.callId = some id := by
  rcases p with _ | id | id | id | ⟨id, reply⟩ | ⟨_ | id, outcome⟩
  case waiting | expired | woken => exact h.1.trans hp
  all_goals exact nomatch hp

/-- A step of one thread that leaves the call alone. -/
theorem JobOk.update (h : JobOk job) (hp : ForwardOk job p)
    (hwaits : p.waitsFor.isSome → (job.forwarders t).waitsFor.isSome)
    (hforwarders : job'.forwarders = Function.update job.forwarders t p)
    (hcall : job'.callId = job.callId) (hreply : job'.reply = job.reply)
    (hevent : job.event = true → job'.event = true) (hnext : job'.nextId = job.nextId)
    (hlast : job'.lastReplyId = job.lastReplyId)
    (hacked : ∀ r, r ∈ job'.acked ↔ r ∈ job.acked) : JobOk job' := by
  have hback : ∀ u, (job'.forwarders u).waitsFor.isSome →
      (job.forwarders u).waitsFor.isSome := by
    intro u hu
    rw [hforwarders] at hu
    by_cases hut : u = t
    · subst hut
      rw [Function.update_self] at hu
      exact hwaits hu
    · rwa [Function.update_of_ne hut] at hu
  refine ⟨?_, ?_, ?_, ?_, ?_, fun t u ht hu => h.single t u (hback t ht) (hback u hu), ?_⟩
  · simpa only [hcall, hnext] using h.callFresh
  · simpa only [hacked, hnext] using h.ackedFresh
  · simpa only [hacked] using h.ackedUnique
  · simpa only [hacked, hcall, hlast] using h.last
  · simpa only [hacked, hlast] using h.lastAcked
  · intro u
    rw [hforwarders]
    by_cases hut : u = t
    · subst hut
      rw [Function.update_self]
      exact hp.of_same hcall hreply hevent hnext hacked
    · rw [Function.update_of_ne hut]
      exact (h.phases u).of_same hcall hreply hevent hnext hacked

theorem JobOk.setPhase (h : JobOk job) (hp : ForwardOk job p)
    (hwaits : p.waitsFor.isSome → (job.forwarders t).waitsFor.isSome) :
    JobOk (job.setPhase t p) :=
  h.update hp hwaits rfl rfl rfl (fun he => he) rfl rfl fun _ => .rfl

/-- A step that no thread takes part in and that keeps the call and the replies. -/
theorem JobOk.of_same (h : JobOk job) (hforwarders : job'.forwarders = job.forwarders)
    (hcall : job'.callId = job.callId) (hreply : job'.reply = job.reply)
    (hevent : job.event = true → job'.event = true) (hnext : job'.nextId = job.nextId)
    (hlast : job'.lastReplyId = job.lastReplyId)
    (hacked : ∀ r, r ∈ job'.acked ↔ r ∈ job.acked) : JobOk job' :=
  h.update (t := 0) (h.phases 0) (fun hw => hw)
    (hforwarders.trans (Function.update_eq_self 0 _).symm) hcall hreply hevent hnext hlast
    hacked

theorem jobOk_start (expires : ℤ) : JobOk (.start expires : LegacyJob π ρ) where
  callFresh := fun _ h => nomatch h
  ackedFresh := fun _ h => nomatch h
  ackedUnique := fun _ h => nomatch h
  last := fun _ h => nomatch h
  lastAcked := fun _ h => nomatch h
  single := fun _ _ h => nomatch h
  phases := fun _ => trivial

theorem JobOk.enter (h : JobOk job) (now : ℤ) (payload : π)
    (hidle : job.forwarders t = .idle) : JobOk (job.enter t now payload) := by
  rw [LegacyJob.enter]
  split_ifs with hexpired hbusy
  · exact h.setPhase trivial (fun hw => nomatch hw)
  · exact h.setPhase trivial (fun hw => nomatch hw)
  · have hnone : job.callId = none := by
      simpa [LegacyJob.callId] using hbusy
    have hsettled : ∀ u, (job.forwarders u).waitsFor = none := by
      intro u
      by_contra hwaits
      obtain ⟨id, hid⟩ := Option.ne_none_iff_exists'.mp hwaits
      exact nomatch hnone.symm.trans ((h.phases u).waits hid)
    have hother : ∀ u ≠ t, Function.update job.forwarders t (.waiting job.nextId) u =
        job.forwarders u := fun u hu => Function.update_of_ne hu ..
    refine ⟨?_, ?_, h.ackedUnique, ?_, h.lastAcked, ?_, ?_⟩
    · intro id hid
      obtain rfl := Option.some.inj hid
      exact Nat.lt_succ_self _
    · exact fun r hr => (h.ackedFresh r hr).trans (Nat.lt_succ_self _)
    · intro r hr hid
      exact absurd (Option.some.inj hid) (h.ackedFresh r hr).ne'
    · have honly : ∀ u, (Function.update job.forwarders t (.waiting job.nextId)
          u).waitsFor.isSome → u = t := by
        intro u hu
        by_contra hut
        rw [hother u hut, hsettled u] at hu
        exact nomatch hu
      exact fun u v hu hv => (honly u hu).trans (honly v hv).symm
    · intro u
      by_cases hut : u = t
      · subst hut
        simp only [LegacyJob.setPhase, Function.update_self]
        refine ⟨rfl, (fun r hr => nomatch hr), ?_⟩
        intro r hr hid
        exact absurd hid (h.ackedFresh r hr).ne
      · simp only [LegacyJob.setPhase, hother u hut]
        refine (h.phases u).of_settled (hsettled u) (Nat.le_succ _) ?_ (fun _ hr => hr)
          (fun _ hr => .inl hr)
        intro id hid _ hcall
        exact hid.ne' (Option.some.inj hcall)

/-- The thread that holds the call lets it go. -/
theorem JobOk.clear (h : JobOk job) (hwaits : (job.forwarders t).waitsFor.isSome)
    (hp : ForwardOk job' p) (hsettled : p.waitsFor = none)
    (hforwarders : job'.forwarders = Function.update job.forwarders t p)
    (hcall : job'.call = none) (hnext : job'.nextId = job.nextId)
    (hlast : job'.lastReplyId = job.lastReplyId) (hacked : job'.acked = job.acked) :
    JobOk job' := by
  have hcallId : job'.callId = none := by rw [LegacyJob.callId, hcall]; rfl
  have hother : ∀ u ≠ t, (job.forwarders u).waitsFor = none := by
    intro u hut
    by_contra hu
    exact hut (h.single u t (Option.isSome_iff_ne_none.mpr hu) hwaits)
  have hall : ∀ u, (job'.forwarders u).waitsFor = none := by
    intro u
    rw [hforwarders]
    by_cases hut : u = t
    · rw [hut, Function.update_self]
      exact hsettled
    · rw [Function.update_of_ne hut]
      exact hother u hut
  refine ⟨?_, ?_, ?_, ?_, ?_, ?_, ?_⟩
  · intro id hid
    exact nomatch hcallId.symm.trans hid
  · simpa only [hacked, hnext] using h.ackedFresh
  · simpa only [hacked] using h.ackedUnique
  · intro r _ hid
    exact nomatch hcallId.symm.trans hid
  · simpa only [hacked, hlast] using h.lastAcked
  · intro u v hu
    rw [hall u] at hu
    exact nomatch hu
  · intro u
    by_cases hut : u = t
    · rw [hforwarders, hut, Function.update_self]
      exact hp
    · rw [hforwarders, Function.update_of_ne hut]
      refine (h.phases u).of_settled (hother u hut) hnext.ge ?_ ?_ ?_
      · intro id _ _ hid
        exact nomatch hcallId.symm.trans hid
      · rw [hacked]
        exact fun _ hr => hr
      · rw [hacked]
        exact fun _ hr => .inl hr

theorem JobOk.timeOut (h : JobOk job) (hphase : job.forwarders t = .expired id) :
    JobOk (job.timeOut t id) := by
  have hwaits : (job.forwarders t).waitsFor = some id := by rw [hphase]; rfl
  have hcall := (h.phases t).waits hwaits
  refine h.clear (t := t) (by rw [hphase]; rfl) ?_ rfl rfl rfl rfl rfl rfl
  exact ⟨h.callFresh id hcall, nofun, .inr (.inl rfl)⟩

theorem JobOk.take (h : JobOk job) (hphase : job.forwarders t = .woken id) :
    JobOk (job.take t id) := by
  have hok := h.phases t
  rw [hphase] at hok
  obtain ⟨hcall, hread, hwritten⟩ := hok
  refine h.clear (t := t) (by rw [hphase]; rfl) ?_ rfl rfl rfl rfl rfl rfl
  exact ⟨h.callFresh id hcall, nofun, hread, fun r hr hid => (hwritten r hr hid).1⟩

theorem JobOk.finish (h : JobOk job) {reply : Option (LegacyReply ρ)}
    (hphase : job.forwarders t = .taken id reply) : JobOk (job.finish t id reply) := by
  have hok := h.phases t
  rw [hphase] at hok
  obtain ⟨hlt, hgone, hread, -⟩ := hok
  refine h.setPhase ⟨hlt, hgone, ?_⟩ (fun hw => nomatch hw)
  rcases reply with _ | r
  · exact .inr (.inr rfl)
  · obtain ⟨hid, hr⟩ := hread r rfl
    dsimp only
    split_ifs
    · exact .inr (.inr rfl)
    · exact .inl ⟨r, hr, hid, rfl⟩

/-- Replies with one identifier are equal, so a duplicate is the reply itself. -/
theorem JobOk.deliver (h : JobOk job) {reply : LegacyReply ρ}
    (hsame : ∀ r ∈ job.acked, r.id = reply.id → r = reply) : JobOk (job.deliver reply) := by
  rw [LegacyJob.deliver]
  split_ifs with hdup haccepts
  · simp only [Bool.and_eq_true, decide_eq_true_eq] at hdup
    obtain ⟨r, hr, hid⟩ := h.lastAcked _ hdup.2
    obtain rfl := hsame r hr hid
    refine h.of_same rfl rfl rfl (fun he => he) rfl rfl ?_
    intro r'
    exact ⟨fun hr' => (List.mem_cons.mp hr').elim (fun he => he ▸ hr) (fun hr' => hr'),
      List.mem_cons_of_mem _⟩
  · simp only [LegacyJob.accepts, Bool.and_eq_true, decide_eq_true_eq] at haccepts
    obtain ⟨⟨⟨-, hlast⟩, hcall⟩, -⟩ := haccepts
    -- No reply to the pending call was acknowledged before.
    have hfirst : ∀ r ∈ job.acked, r.id ≠ reply.id := by
      intro r hr hid
      exact hlast (hid ▸ h.last r hr (hid ▸ hcall))
    refine ⟨h.callFresh, ?_, ?_, ?_, ?_, h.single, ?_⟩
    · intro r hr
      rcases List.mem_cons.mp hr with rfl | hr
      · exact h.callFresh _ hcall
      · exact h.ackedFresh r hr
    · intro r hr r' hr' hid
      rcases List.mem_cons.mp hr with heq | hold <;>
        rcases List.mem_cons.mp hr' with heq' | hold'
      · exact heq.trans heq'.symm
      · exact absurd (hid.symm.trans (congrArg _ heq)) (hfirst r' hold')
      · exact absurd (hid.trans (congrArg _ heq')) (hfirst r hold)
      · exact h.ackedUnique r hold r' hold' hid
    · intro r hr hid
      exact congrArg some (Option.some.inj (hcall.symm.trans hid))
    · intro id hid
      exact ⟨reply, List.mem_cons_self, Option.some.inj hid⟩
    · intro u
      by_cases hu : (job.forwarders u).waitsFor = none
      · refine (h.phases u).of_settled hu le_rfl (fun _ _ hne => hne)
          (fun _ hr => List.mem_cons_of_mem _ hr) ?_
        intro r hr
        rcases List.mem_cons.mp hr with rfl | hr
        · exact .inr hcall
        · exact .inl hr
      · obtain ⟨id, hid⟩ := Option.ne_none_iff_exists'.mp hu
        have hown := (h.phases u).waits hid
        obtain rfl := Option.some.inj (hcall.symm.trans hown)
        have hok : job.callId = some reply.id ∧
            (∀ r, some reply = some r → r.id = reply.id ∧ r ∈ reply :: job.acked) ∧
            ∀ r ∈ reply :: job.acked, r.id = reply.id → some reply = some r ∧ true = true := by
          refine ⟨hcall, ?_, ?_⟩
          · intro r hr
            obtain rfl := Option.some.inj hr
            exact ⟨rfl, List.mem_cons_self⟩
          · intro r hr hrid
            rcases List.mem_cons.mp hr with rfl | hr
            · exact ⟨rfl, rfl⟩
            · exact absurd hrid (hfirst r hr)
        rcases hphase : job.forwarders u with _ | id' | id' | id' | ⟨id', reply'⟩ |
          ⟨_ | id', outcome⟩ <;> rw [hphase] at hid
        case waiting | expired | woken =>
          obtain rfl := Option.some.inj hid
          exact hok
        all_goals exact nomatch hid
  · exact h

theorem JobOk.cancel (h : JobOk job) : JobOk job.cancel :=
  h.of_same rfl rfl rfl (fun _ => rfl) rfl rfl fun _ => .rfl

theorem JobOk.reap (h : JobOk job) (now : ℤ) : JobOk (job.reap now) := by
  rw [LegacyJob.reap]
  split_ifs
  · exact h.cancel.of_same rfl rfl rfl (fun he => he) rfl rfl fun _ => .rfl
  · exact h

theorem JobOk.poll (h : JobOk job) : JobOk job.poll.1 := by
  rw [LegacyJob.poll]
  split_ifs
  · split
    · exact h.of_same rfl rfl rfl (fun he => he) rfl rfl fun _ => .rfl
    · exact h
  · exact h

end

end

end PromptCode
