import PromptCode.FairSemaphore
import PromptCode.Transition
import Mathlib.Algebra.BigOperators.Group.Finset.Basic

/-!
# Admission to the execution slots

`CapacityQueue` of `core/capacity_queue.py`, as the tasks of one event loop drive it:
what stands between two awaits is one step.  A refresh that changes the number of slots
puts a new semaphore in the place of the old one, at which tasks may still wait.
-/

namespace PromptCode

open Transition

structure CapacityQueue where
  slots : ℕ
  maxWaiters : ℕ
  /-- All semaphores that the queue has had. -/
  semaphores : ℕ → Semaphore ℕ
  current : ℕ
  waiting : ℕ
  active : ℕ
  /-- The tasks that have acquired a slot and not released it. -/
  holders : List ℕ
  /-- The tasks whose await has failed and whose `finally` has not run. -/
  leaving : List (ℕ × ℕ)

inductive CapacityAction where
  | acquire (t : ℕ)
  /-- The await of a woken task ends. -/
  | resume (g t : ℕ)
  /-- It ends with a timeout or a cancellation although the task was woken. -/
  | abandon (g t : ℕ)
  /-- The future of a waiting task is cancelled, by the timeout or from outside. -/
  | cancel (g t : ℕ)
  | unwind (g t : ℕ)
  | release (t : ℕ)
  | refresh (slots : ℤ)
  deriving DecidableEq

namespace CapacityQueue

/-- `max(1, int(slots))`. -/
def slotCount (slots : ℤ) : ℕ := (max 1 slots).toNat

/-- `__init__`. -/
def start (slots maxWaiters : ℤ) : CapacityQueue where
  slots := slotCount slots
  maxWaiters := (max 0 maxWaiters).toNat
  semaphores := fun _ => Semaphore.ofSlots (slotCount slots)
  current := 0
  waiting := 0
  active := 0
  holders := []
  leaving := []

variable (q : CapacityQueue)

def put (g : ℕ) (s : Semaphore ℕ) : CapacityQueue :=
  { q with semaphores := Function.update q.semaphores g s }

/-- The task has its slot. -/
def grant (t : ℕ) : CapacityQueue :=
  { q with active := q.active + 1, holders := t :: q.holders }

/-- `acquire` up to its await, or to its end when it does not suspend. -/
def acquire (t : ℕ) : CapacityQueue :=
  let s := q.semaphores q.current
  if s.locked then
    if q.maxWaiters ≤ q.waiting then q
    else { q.put q.current (s.enqueue t) with waiting := q.waiting + 1 }
  else (q.put q.current s.take).grant t

def release (t : ℕ) : CapacityQueue :=
  { q.put q.current (q.semaphores q.current).release with
    active := q.active - 1
    holders := q.holders.erase t }

def refresh (slots : ℤ) : CapacityQueue :=
  if slotCount slots ≠ q.slots then
    { q.put (q.current + 1) (Semaphore.ofSlots (slotCount slots)) with
      slots := slotCount slots
      current := q.current + 1 }
  else q

end CapacityQueue

def capacityAct (q : CapacityQueue) : CapacityAction → CapacityQueue
  | .acquire t => q.acquire t
  | .resume g t =>
      if g ≤ q.current ∧ (t, true) ∈ (q.semaphores g).waiters then
        { q.put g ((q.semaphores g).resume t) with waiting := q.waiting - 1 }.grant t
      else q
  | .abandon g t =>
      if g ≤ q.current ∧ (t, true) ∈ (q.semaphores g).waiters then
        { q.put g ((q.semaphores g).abandon t) with waiting := q.waiting - 1 }
      else q
  | .cancel g t =>
      if g ≤ q.current ∧ (t, false) ∈ (q.semaphores g).waiters then
        { q.put g ((q.semaphores g).cancel t) with leaving := (t, g) :: q.leaving }
      else q
  | .unwind g t =>
      if g ≤ q.current ∧ (t, g) ∈ q.leaving then
        { q.put g (Semaphore.wakeAll (q.semaphores g).value (q.semaphores g).waiters) with
          leaving := q.leaving.erase (t, g)
          waiting := q.waiting - 1 }
      else q
  | .release t => if t ∈ q.holders then q.release t else q
  | .refresh slots => q.refresh slots

/-- The acquires that are pending. -/
def CapacityQueue.pending (q : CapacityQueue) : ℕ :=
  (∑ g ∈ Finset.range (q.current + 1), (q.semaphores g).waiters.length) + q.leaving.length

/-! ## The counters -/

structure CountsOk (q : CapacityQueue) : Prop where
  active : q.active = q.holders.length
  waiting : q.waiting = q.pending
  bounded : q.waiting ≤ q.maxWaiters

/-- Permits are neither lost nor made, and nobody waits at a retired semaphore. -/
structure PermitsOk (q : CapacityQueue) : Prop where
  conserved : (q.semaphores q.current).permits + q.holders.length = q.slots
  retired : ∀ g < q.current, (q.semaphores g).waiters = []

section

variable {q : CapacityQueue} {g t : ℕ} {s : Semaphore ℕ}

@[simp] theorem put_same : (q.put g s).semaphores g = s := Function.update_self ..

theorem put_of_ne {i : ℕ} (h : i ≠ g) : (q.put g s).semaphores i = q.semaphores i :=
  Function.update_of_ne h ..

/-- The pending acquires after a change at one semaphore. -/
theorem pending_put (hg : g ≤ q.current) :
    (q.put g s).pending + (q.semaphores g).waiters.length =
      q.pending + s.waiters.length := by
  have hmem : g ∈ Finset.range (q.current + 1) := Finset.mem_range.mpr (by omega)
  have hsame : ∑ i ∈ (Finset.range (q.current + 1)).erase g,
        ((q.put g s).semaphores i).waiters.length =
      ∑ i ∈ (Finset.range (q.current + 1)).erase g, (q.semaphores i).waiters.length := by
    apply Finset.sum_congr rfl
    intro i hi
    rw [put_of_ne (Finset.ne_of_mem_erase hi)]
  have hold := Finset.add_sum_erase _ (fun i => (q.semaphores i).waiters.length) hmem
  have hnew := Finset.add_sum_erase _
    (fun i => ((q.put g s).semaphores i).waiters.length) hmem
  simp only [hsame, put_same] at hold hnew
  have hcurrent : (q.put g s).current = q.current := rfl
  have hleaving : (q.put g s).leaving = q.leaving := rfl
  rw [CapacityQueue.pending, CapacityQueue.pending, hcurrent, hleaving]
  omega

theorem countsOk_start (slots maxWaiters : ℤ) :
    CountsOk (CapacityQueue.start slots maxWaiters) :=
  ⟨rfl, rfl, Nat.zero_le _⟩

/-- A step at one semaphore that moves the counter of the waiters with the waiters. -/
theorem CountsOk.of_put {q' : CapacityQueue} (h : CountsOk q) (hg : g ≤ q.current)
    (hmax : q'.maxWaiters = q.maxWaiters) (hactive : q'.active = q'.holders.length)
    (hpending : q'.pending + q.leaving.length =
      (q.put g s).pending + q'.leaving.length)
    (hwaiting : q'.waiting + (q.semaphores g).waiters.length + q.leaving.length =
      q.waiting + s.waiters.length + q'.leaving.length)
    (hle : q'.waiting ≤ q.maxWaiters) : CountsOk q' := by
  have hput := pending_put (s := s) hg
  have hcount := h.waiting
  exact ⟨hactive, by omega, hmax ▸ hle⟩

theorem CountsOk.waiters_le (h : CountsOk q) (hg : g ≤ q.current) :
    (q.semaphores g).waiters.length ≤ q.waiting := by
  have hput := pending_put (s := Semaphore.ofSlots 0) hg
  rw [h.waiting]
  simp only [Semaphore.ofSlots, List.length_nil, Nat.add_zero] at hput
  omega

theorem CountsOk.act (h : CountsOk q) (a : CapacityAction) : CountsOk (capacityAct q a) := by
  have hbounded := h.bounded
  have hactive := h.active
  rcases a with t | ⟨g, t⟩ | ⟨g, t⟩ | ⟨g, t⟩ | ⟨g, t⟩ | t | slots <;> rw [capacityAct]
  case acquire =>
    rw [CapacityQueue.acquire]
    dsimp only
    split_ifs with hlocked hfull
    · exact h
    · obtain ⟨hlength, -⟩ := (q.semaphores q.current).enqueue_spec t
      refine h.of_put le_rfl rfl hactive rfl ?_ ?_
      · exact by simp only [CapacityQueue.put]; omega
      · exact Nat.lt_of_not_le hfull
    · refine h.of_put (s := (q.semaphores q.current).take) le_rfl rfl ?_ rfl rfl hbounded
      simp [CapacityQueue.grant, CapacityQueue.put, hactive]
  case resume =>
    split_ifs with hok
    · obtain ⟨hlength, -⟩ := Semaphore.resume_spec hok.2
      have hle := h.waiters_le hok.1
      refine h.of_put (s := (q.semaphores g).resume t) hok.1 rfl ?_ rfl ?_ ?_
      · simp [CapacityQueue.grant, CapacityQueue.put, hactive]
      · simp only [CapacityQueue.grant, CapacityQueue.put]
        omega
      · simp only [CapacityQueue.grant, CapacityQueue.put]
        omega
    · exact h
  case abandon =>
    split_ifs with hok
    · obtain ⟨hlength, -⟩ := Semaphore.abandon_spec hok.2
      have hle := h.waiters_le hok.1
      refine h.of_put (s := (q.semaphores g).abandon t) hok.1 rfl hactive rfl ?_ ?_
      · simp only [CapacityQueue.put]
        omega
      · simp only
        omega
    · exact h
  case cancel =>
    split_ifs with hok
    · obtain ⟨hlength, -⟩ := Semaphore.cancel_spec hok.2
      refine h.of_put (s := (q.semaphores g).cancel t) hok.1 rfl hactive ?_ ?_ hbounded
      · simp only [CapacityQueue.pending, CapacityQueue.put, List.length_cons]
        omega
      · simp only [CapacityQueue.put, List.length_cons]
        omega
    · exact h
  case unwind =>
    split_ifs with hok
    · obtain ⟨hlength, -⟩ :=
        Semaphore.wakeAll_spec (q.semaphores g).value (q.semaphores g).waiters
      have herase := length_erase_add_one hok.2
      have hle : q.leaving.length ≤ q.waiting := by
        rw [h.waiting, CapacityQueue.pending]
        omega
      refine h.of_put (s := Semaphore.wakeAll (q.semaphores g).value
        (q.semaphores g).waiters) hok.1 rfl hactive ?_ ?_ ?_
      · simp only [CapacityQueue.pending, CapacityQueue.put]
        omega
      · simp only
        omega
      · simp only
        omega
    · exact h
  case release =>
    split_ifs with hheld
    · obtain ⟨hlength, -⟩ := (q.semaphores q.current).release_spec
      have hpos := List.length_pos_of_mem hheld
      refine h.of_put (s := (q.semaphores q.current).release) le_rfl rfl ?_ rfl ?_ hbounded
      · simp only [CapacityQueue.release, List.length_erase_of_mem hheld]
        omega
      · simp only [CapacityQueue.release, CapacityQueue.put]
        omega
    · exact h
  case refresh =>
    rw [CapacityQueue.refresh]
    split_ifs
    · refine ⟨hactive, ?_, hbounded⟩
      have hsum : ∑ g ∈ Finset.range (q.current + 1),
          ((q.put (q.current + 1) (Semaphore.ofSlots (CapacityQueue.slotCount slots))).semaphores
            g).waiters.length =
          ∑ g ∈ Finset.range (q.current + 1), (q.semaphores g).waiters.length := by
        apply Finset.sum_congr rfl
        intro g hg
        rw [put_of_ne (Finset.mem_range.mp hg).ne]
      have hcount := h.waiting
      rw [CapacityQueue.pending] at hcount ⊢
      rw [Finset.sum_range_succ]
      simp only [put_same, Semaphore.ofSlots, List.length_nil, Nat.add_zero]
      exact hcount.trans (congrArg (· + q.leaving.length) hsum.symm)
    · exact h

/-! ## The permits -/

/-- A refresh changes the number of slots only while no slot is held and nobody waits
for one. -/
def Settled (q : CapacityQueue) (a : CapacityAction) : Prop :=
  ∀ slots, a = .refresh slots → CapacityQueue.slotCount slots ≠ q.slots →
    q.holders = [] ∧ (q.semaphores q.current).waiters = []

theorem permitsOk_start (slots maxWaiters : ℤ) :
    PermitsOk (CapacityQueue.start slots maxWaiters) :=
  ⟨rfl, fun _ hg => absurd hg (Nat.not_lt_zero _)⟩

/-- A step at the current semaphore that moves the permits with the holders. -/
theorem PermitsOk.of_put {q' : CapacityQueue} (h : PermitsOk q)
    (hsemaphores : q'.semaphores = (q.put q.current s).semaphores)
    (hcurrent : q'.current = q.current) (hslots : q'.slots = q.slots)
    (hpermits : s.permits + q'.holders.length =
      (q.semaphores q.current).permits + q.holders.length) : PermitsOk q' := by
  have hconserved := h.conserved
  refine ⟨?_, ?_⟩
  · rw [hsemaphores, hcurrent, put_same, hslots]
    omega
  · intro g hg
    rw [hcurrent] at hg
    rw [hsemaphores, put_of_ne hg.ne]
    exact h.retired g hg

/-- Who waits, waits at the current semaphore. -/
theorem PermitsOk.eq_current (h : PermitsOk q) (hg : g ≤ q.current) {w : ℕ × Bool}
    (hw : w ∈ (q.semaphores g).waiters) : g = q.current := by
  by_contra hne
  rw [h.retired g (by omega)] at hw
  exact nomatch hw

theorem PermitsOk.act (h : PermitsOk q) {a : CapacityAction} (ha : Settled q a) :
    PermitsOk (capacityAct q a) := by
  rcases a with t | ⟨g, t⟩ | ⟨g, t⟩ | ⟨g, t⟩ | ⟨g, t⟩ | t | slots <;> rw [capacityAct]
  case acquire =>
    rw [CapacityQueue.acquire]
    dsimp only
    split_ifs with hlocked hfull
    · exact h
    · obtain ⟨-, hpermits⟩ := (q.semaphores q.current).enqueue_spec t
      refine h.of_put rfl rfl rfl ?_
      rw [hpermits]
      rfl
    · have hpermits := Semaphore.permits_take (Bool.eq_false_iff.mpr hlocked)
      refine h.of_put rfl rfl rfl ?_
      simp only [CapacityQueue.grant, CapacityQueue.put, List.length_cons]
      omega
  case resume =>
    split_ifs with hok
    · obtain rfl := h.eq_current hok.1 hok.2
      obtain ⟨-, hpermits⟩ := Semaphore.resume_spec hok.2
      refine h.of_put rfl rfl rfl ?_
      simp only [CapacityQueue.grant, CapacityQueue.put, List.length_cons]
      omega
    · exact h
  case abandon =>
    split_ifs with hok
    · obtain rfl := h.eq_current hok.1 hok.2
      obtain ⟨-, hpermits⟩ := Semaphore.abandon_spec hok.2
      refine h.of_put rfl rfl rfl ?_
      rw [hpermits]
      rfl
    · exact h
  case cancel =>
    split_ifs with hok
    · obtain rfl := h.eq_current hok.1 hok.2
      obtain ⟨-, hpermits⟩ := Semaphore.cancel_spec hok.2
      refine h.of_put rfl rfl rfl ?_
      rw [hpermits]
      rfl
    · exact h
  case unwind =>
    split_ifs with hok
    · by_cases hg : g = q.current
      · subst hg
        obtain ⟨-, hpermits⟩ := Semaphore.wakeAll_spec (q.semaphores q.current).value
          (q.semaphores q.current).waiters
        refine h.of_put rfl rfl rfl ?_
        rw [hpermits]
        rfl
      · have hwaiters := h.retired g (by omega)
        refine ⟨?_, ?_⟩
        · have hconserved := h.conserved
          simp only [CapacityQueue.put, Function.update_of_ne (Ne.symm hg)]
          exact hconserved
        · intro i hi
          by_cases hig : i = g
          · subst hig
            obtain ⟨hlength, -⟩ := Semaphore.wakeAll_spec (q.semaphores i).value
              (q.semaphores i).waiters
            rw [hwaiters] at hlength
            simp only [CapacityQueue.put, Function.update_self]
            rw [hwaiters]
            exact List.length_eq_zero_iff.mp hlength
          · simp only [CapacityQueue.put, Function.update_of_ne hig]
            exact h.retired i hi
    · exact h
  case release =>
    split_ifs with hheld
    · obtain ⟨-, hpermits⟩ := (q.semaphores q.current).release_spec
      have hpos := List.length_pos_of_mem hheld
      refine h.of_put rfl rfl rfl ?_
      simp only [CapacityQueue.release, List.length_erase_of_mem hheld]
      omega
    · exact h
  case refresh =>
    rw [CapacityQueue.refresh]
    split_ifs with hsame
    · obtain ⟨hholders, hwaiters⟩ := ha slots rfl hsame
      refine ⟨?_, ?_⟩
      · simp [CapacityQueue.put, hholders, Semaphore.permits, Semaphore.woken,
          Semaphore.ofSlots]
      · intro g hg
        simp only [CapacityQueue.put]
        rw [Function.update_of_ne (Nat.ne_of_lt hg)]
        rcases Nat.lt_or_eq_of_le (Nat.le_of_lt_succ hg) with hlt | rfl
        · exact h.retired g hlt
        · exact hwaiters
    · exact h

end

/-! ## Admissions -/

/-- The waiters stay bounded, and none is counted when no acquire is pending. -/
def WaitersBounded (q : CapacityQueue) (a : CapacityAction) : Prop :=
  (capacityAct q a).waiting ≤ (capacityAct q a).maxWaiters ∧
    ((capacityAct q a).pending = 0 → (capacityAct q a).waiting = 0)

/-- No slot is given away while all are held, and the free permits and the holders are
never more than the slots. -/
structure SlotsBounded (q : CapacityQueue) (a : CapacityAction) : Prop where
  admitted : q.holders.length < (capacityAct q a).holders.length →
    q.holders.length < q.slots
  active : (capacityAct q a).active = (capacityAct q a).holders.length
  permits : ((capacityAct q a).semaphores (capacityAct q a).current).value +
    (capacityAct q a).active ≤ (capacityAct q a).slots

/-- Only an action that leaves the slots alone admits, and only one holder. -/
theorem holders_le_act (q : CapacityQueue) (a : CapacityAction) :
    (capacityAct q a).holders.length ≤ q.holders.length ∨
      (capacityAct q a).holders.length = q.holders.length + 1 ∧
        (capacityAct q a).slots = q.slots := by
  rcases a with t | ⟨g, t⟩ | ⟨g, t⟩ | ⟨g, t⟩ | ⟨g, t⟩ | t | slots <;> rw [capacityAct]
  case acquire =>
    rw [CapacityQueue.acquire]
    dsimp only
    split_ifs
    · exact .inl le_rfl
    · exact .inl le_rfl
    · exact .inr ⟨rfl, rfl⟩
  case resume =>
    split_ifs
    · exact .inr ⟨rfl, rfl⟩
    · exact .inl le_rfl
  case release =>
    split_ifs
    · exact .inl (List.erase_sublist.length_le)
    · exact .inl le_rfl
  case refresh =>
    rw [CapacityQueue.refresh]
    split_ifs <;> exact .inl le_rfl
  all_goals split_ifs <;> exact .inl le_rfl

theorem PermitsOk.slotsBounded {q : CapacityQueue} {a : CapacityAction} (h : PermitsOk q)
    (hcounts : CountsOk q) (ha : Settled q a) : SlotsBounded q a := by
  have hafter := (h.act ha).conserved
  have hactive := (hcounts.act a).active
  refine ⟨?_, hactive, ?_⟩
  · intro hgrows
    rcases holders_le_act q a with hle | ⟨hone, hslots⟩
    · omega
    · omega
  · rw [hactive]
    rw [Semaphore.permits] at hafter
    omega

theorem CountsOk.waitersBounded {q : CapacityQueue} (h : CountsOk q)
    (a : CapacityAction) : WaitersBounded q a :=
  ⟨(h.act a).bounded, fun hnone => (h.act a).waiting.trans hnone⟩

/-- The waiters are bounded in every run.  In runs that change the number of slots only
while the queue is settled no slot is given away while all are held, and no permit is
made. -/
theorem capacity_queue_bounded (slots maxWaiters : ℤ) (actions : List CapacityAction) :
    Throughout capacityAct WaitersBounded (.start slots maxWaiters) actions ∧
      (Throughout capacityAct Settled (.start slots maxWaiters) actions →
        Throughout capacityAct SlotsBounded (.start slots maxWaiters) actions) := by
  refine ⟨?_, ?_⟩
  · exact throughout_of_step CountsOk (fun _ a h => h.act a)
      (fun _ a h => h.waitersBounded a) (countsOk_start slots maxWaiters)
  · intro hsettled
    refine throughout_of_invariant (fun q => CountsOk q ∧ PermitsOk q) ?_ ?_
      ⟨countsOk_start slots maxWaiters, permitsOk_start slots maxWaiters⟩ hsettled
    · intro q a h ha
      exact ⟨h.1.act a, h.2.act ha⟩
    · intro q a h ha
      exact h.2.slotsBounded h.1 ha

/-- Two tasks take the two slots that a refresh has made, after the first one has left. -/
theorem capacity_queue_bounded_refresh :
    Throughout capacityAct SlotsBounded (.start 1 1)
      [.acquire 0, .release 0, .refresh 2, .acquire 1, .acquire 2] := by
  refine (capacity_queue_bounded 1 1 _).2 ⟨?_, ?_, ?_, ?_, ?_, trivial⟩
  all_goals intro slots hslots _
  case refine_3 => exact ⟨rfl, rfl⟩
  all_goals exact nomatch hslots

/-- A refresh while a slot is held lets two more tasks in: the third is admitted while
two are active at two slots. -/
theorem refresh_admits_beyond_slots :
    ¬ ∀ (slots maxWaiters : ℤ) (actions : List CapacityAction),
      Throughout capacityAct SlotsBounded (.start slots maxWaiters) actions := by
  intro h
  have hrun := h 1 1 [.acquire 0, .refresh 2, .acquire 1, .acquire 2]
  have hlast := hrun.2.2.2.1.admitted
  revert hlast
  decide

end PromptCode
